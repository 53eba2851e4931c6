/-
  Naitron.MultipartSlices

  `ntc_multipart_parse` with its pointers: what it returns are slices of the
  body, and what it searches are ranges between two pointers.

  A pointer is an offset into memory, where the body is followed by other
  bytes.  A range whose end lies in front of its start would be read as one of
  nearly 2^64 bytes; that the parser of slices comes to the same parts as the
  one on lists says that this never happens and that no byte behind the body
  is looked at.
-/

import Naitron.HttpRequest
import Naitron.Multipart

namespace Naitron

-- ============================================================================
-- The code
-- ============================================================================

/-- `ntc_slice`, its pointer as an offset. -/
structure NtcSliceAt where
  ptr : Nat
  len : Nat
deriving DecidableEq, Repr

/-- `ntc_multipart_part`; `none` is the slice that `memset` leaves. -/
structure NtcMultipartPartAt where
  name : Option NtcSliceAt := none
  filename : Option NtcSliceAt := none
  contentType : Option NtcSliceAt := none
  data : NtcSliceAt
deriving DecidableEq, Repr

/-- The slice from one pointer to another. -/
def sliceAt (start stop : Nat) : NtcSliceAt := ⟨start, sizeSub stop start⟩

section Code

variable (mem : Bytes)

/-- The bytes from one pointer to another. -/
def rangeAt (start stop : Nat) : Bytes := (mem.drop start).take (sizeSub stop start)

/-- `memmem` from one pointer to another. -/
def memmemAt (start stop : Nat) (needle : Bytes) : Option Nat :=
  (memmem (rangeAt mem start stop) needle).map (start + ·)

/-- `memchr` from one pointer to another. -/
def memchrAt (start stop : Nat) (c : UInt8) : Option Nat :=
  (memchr (rangeAt mem start stop) c).map (start + ·)

/-- `mp_quoted`. -/
def mpQuotedAt (start stop : Nat) (key : Bytes) : Option NtcSliceAt :=
  (memmemAt mem start stop key).bind fun k =>
    let k := k + key.length
    (memchrAt mem k stop chQuote).map fun q => sliceAt k q

/-- The loop over the spaces in front of the type. -/
def skipSpaces (ct hdrEnd : Nat) : Nat :=
  ct + (((mem.drop ct).take (hdrEnd - ct)).takeWhile (· == chSpace)).length

/-- The Content-Type block. -/
def mpContentTypeAt (cur hdrEnd : Nat) : Option NtcSliceAt :=
  (memmemAt mem cur hdrEnd (lit "Content-Type:")).map fun ct =>
    let ct := skipSpaces mem (ct + 13) hdrEnd
    let eol := memmemAt mem ct hdrEnd crlf
    sliceAt ct (eol.getD hdrEnd)

/-- One turn of the loop, from behind the boundary line to the delimiter. -/
def mpPartAt (cur next : Nat) : NtcMultipartPartAt :=
  (memmemAt mem cur next (crlf ++ crlf)).elim { data := sliceAt cur next } fun hdrEnd =>
    { name := mpQuotedAt mem cur hdrEnd (lit "name=\"")
      filename := mpQuotedAt mem cur hdrEnd (lit "filename=\"")
      contentType := mpContentTypeAt mem cur hdrEnd
      data := sliceAt (hdrEnd + 4) next }

/-- The loop over the parts, with room for `n` more. -/
def mpLoopAt (len : Nat) (sep : Bytes) : Nat → Nat → List NtcMultipartPartAt
  | 0, _ => []
  | n + 1, cur =>
      if len ≤ cur then []
      else if cur + 2 ≤ len ∧ (mem.drop cur).take 2 = lit "--" then []
      else if cur + 2 ≤ len ∧ (mem.drop cur).take 2 = crlf then
        (memmemAt mem (cur + 2) len sep).elim [] fun next =>
          mpPartAt mem (cur + 2) next :: mpLoopAt len sep n (next + sep.length)
      else []

/-- `ntc_multipart_parse` on a body of `len` bytes. -/
def ntcMultipartParseAt (len : Nat) (boundary : Bytes) (max : Nat) :
    Option (List NtcMultipartPartAt) :=
  let delim := lit "--" ++ cstr boundary
  let sep := crlf ++ delim
  if 260 ≤ delim.length then none
  else (memmemAt mem 0 len delim).map fun cur => mpLoopAt mem len sep max (cur + delim.length)

end Code

-- ============================================================================
-- Ranges
-- ============================================================================

/-- The bytes of a slice. -/
def NtcSliceAt.bytes (mem : Bytes) (s : NtcSliceAt) : Bytes := (mem.drop s.ptr).take s.len

/-- The part with the bytes of its slices. -/
def NtcMultipartPartAt.part (mem : Bytes) (p : NtcMultipartPartAt) : NtcMultipartPart where
  name := (p.name.map (·.bytes mem)).getD []
  filename := (p.filename.map (·.bytes mem)).getD []
  contentType := (p.contentType.map (·.bytes mem)).getD []
  data := p.data.bytes mem

/-- The slice lies between two pointers. -/
def NtcSliceAt.Within (s : NtcSliceAt) (start stop : Nat) : Prop :=
  start ≤ s.ptr ∧ s.ptr + s.len ≤ stop

theorem NtcSliceAt.Within.mono {s : NtcSliceAt} {start stop start' stop' : Nat}
    (h : s.Within start stop) (hstart : start' ≤ start) (hstop : stop ≤ stop') :
    s.Within start' stop' :=
  ⟨hstart.trans h.1, h.2.trans hstop⟩

theorem rangeAt_eq {mem : Bytes} {start stop : Nat} (h : start ≤ stop) (hstop : stop < sizeMax) :
    rangeAt mem start stop = (mem.drop start).take (stop - start) := by
  rw [rangeAt, sizeSub_of_le h hstop]

theorem length_rangeAt {mem : Bytes} {start stop : Nat} (h : start ≤ stop)
    (hstop : stop ≤ mem.length) (hsize : mem.length < sizeMax) :
    (rangeAt mem start stop).length = stop - start := by
  rw [rangeAt_eq h (by omega), List.length_take, List.length_drop]
  omega

/-- The end of a range is a range. -/
theorem rangeAt_drop {mem : Bytes} {start stop k : Nat} (h : start + k ≤ stop)
    (hstop : stop < sizeMax) :
    (rangeAt mem start stop).drop k = rangeAt mem (start + k) stop := by
  rw [rangeAt_eq (by omega) hstop, rangeAt_eq h hstop, List.drop_take, List.drop_drop,
    Nat.sub_sub]

/-- So is its beginning. -/
theorem rangeAt_take {mem : Bytes} {start stop k : Nat} (h : start + k ≤ stop)
    (hstop : stop < sizeMax) :
    (rangeAt mem start stop).take k = rangeAt mem start (start + k) := by
  rw [rangeAt_eq (by omega) hstop, rangeAt_eq (by omega) (by omega), List.take_take,
    Nat.min_eq_left (by omega), Nat.add_sub_cancel_left]

section Searches

variable {mem : Bytes} {start stop : Nat} (h : start ≤ stop) (hstop : stop ≤ mem.length)
  (hsize : mem.length < sizeMax)

include h hstop hsize

/-- An occurrence lies in the range that was searched. -/
theorem memmemAt_some {needle : Bytes} {i : Nat} (hi : memmemAt mem start stop needle = some i) :
    ∃ j, memmem (rangeAt mem start stop) needle = some j ∧ i = start + j ∧
      i + needle.length ≤ stop := by
  obtain ⟨j, hj, rfl⟩ := Option.map_eq_some_iff.mp hi
  have hle := Lib.search_le hj
  rw [length_rangeAt h hstop hsize] at hle
  exact ⟨j, hj, rfl, by omega⟩

theorem memchrAt_some {c : UInt8} {i : Nat} (hi : memchrAt mem start stop c = some i) :
    ∃ j, memchr (rangeAt mem start stop) c = some j ∧ i = start + j ∧ i < stop := by
  obtain ⟨j, hj, rfl⟩ := Option.map_eq_some_iff.mp hi
  have hlen := congrArg List.length (memchr_some hj).1
  rw [List.length_append, List.length_take, List.length_cons, length_rangeAt h hstop hsize] at hlen
  exact ⟨j, hj, rfl, by omega⟩

/-- The slice between two pointers has the bytes between them. -/
theorem sliceAt_spec : (sliceAt start stop).bytes mem = rangeAt mem start stop ∧
    (sliceAt start stop).Within start stop := by
  refine ⟨rfl, Nat.le_refl start, ?_⟩
  show start + sizeSub stop start ≤ stop
  rw [sizeSub_of_le h (by omega)]
  omega

theorem mpQuotedAt_spec (key : Bytes) :
    (mpQuotedAt mem start stop key).map (·.bytes mem) = mpQuoted (rangeAt mem start stop) key ∧
      ∀ s ∈ mpQuotedAt mem start stop key, s.Within start stop := by
  rw [mpQuotedAt, mpQuoted]
  cases hk : memmemAt mem start stop key with
  | none =>
      rw [memmemAt, Option.map_eq_none_iff] at hk
      rw [hk]
      exact ⟨rfl, fun s hs => absurd hs (Option.not_mem_none s)⟩
  | some k =>
      obtain ⟨j, hj, rfl, hle⟩ := memmemAt_some h hstop hsize hk
      have hrest : (rangeAt mem start stop).drop (j + key.length) =
          rangeAt mem (start + j + key.length) stop := by
        rw [rangeAt_drop (by omega) (by omega), Nat.add_assoc]
      rw [hj, Option.bind_some, Option.bind_some, hrest, upToQuote]
      dsimp only
      cases hq : memchrAt mem (start + j + key.length) stop chQuote with
      | none =>
          rw [memchrAt, Option.map_eq_none_iff] at hq
          rw [hq]
          exact ⟨rfl, fun s hs => absurd hs (Option.not_mem_none s)⟩
      | some q =>
          obtain ⟨l, hl, rfl, hlt⟩ := memchrAt_some hle hstop hsize hq
          obtain ⟨hbytes, hwithin⟩ :=
            sliceAt_spec (Nat.le_add_right (start + j + key.length) l) (by omega) hsize
          refine ⟨?_, ?_⟩
          · rw [hl, Option.map_some, Option.map_some, Option.map_some, hbytes,
              rangeAt_take (by omega) (by omega)]
          · intro s hs
            rw [Option.map_some, Option.mem_some_iff] at hs
            rw [← hs]
            exact ⟨by have := hwithin.1; omega, by have := hwithin.2; omega⟩

/-- The loop over the spaces stays in the header. -/
theorem skipSpaces_spec : ∃ k, skipSpaces mem start stop = start + k ∧ start + k ≤ stop ∧
    (rangeAt mem start stop).dropWhile (· == chSpace) = (rangeAt mem start stop).drop k := by
  refine ⟨((rangeAt mem start stop).takeWhile (· == chSpace)).length, ?_, ?_, ?_⟩
  · rw [skipSpaces, rangeAt_eq h (by omega)]
  · have hle := (List.takeWhile_prefix (· == chSpace) (l := rangeAt mem start stop)).length_le
    rw [length_rangeAt h hstop hsize] at hle
    omega
  · have happ := congrArg (List.drop ((rangeAt mem start stop).takeWhile (· == chSpace)).length)
      (List.takeWhile_append_dropWhile (p := (· == chSpace)) (l := rangeAt mem start stop))
    rwa [List.drop_left] at happ

/-- The slice up to the end of its line. -/
theorem lineAt_spec :
    (sliceAt start ((memmemAt mem start stop crlf).getD stop)).bytes mem =
        upToLineEnd (rangeAt mem start stop) ∧
      (sliceAt start ((memmemAt mem start stop crlf).getD stop)).Within start stop := by
  rw [upToLineEnd]
  cases heol : memmemAt mem start stop crlf with
  | none =>
      rw [memmemAt, Option.map_eq_none_iff] at heol
      rw [heol]
      exact sliceAt_spec h hstop hsize
  | some eol =>
      obtain ⟨l, hl, rfl, hend⟩ := memmemAt_some h hstop hsize heol
      have hle : start + l ≤ stop := by omega
      obtain ⟨hbytes, hwithin⟩ :=
        sliceAt_spec (Nat.le_add_right start l) (hle.trans hstop) hsize
      rw [hl]
      exact ⟨hbytes.trans (rangeAt_take hle (by omega)).symm, hwithin.mono le_rfl hle⟩

theorem mpContentTypeAt_spec :
    ((mpContentTypeAt mem start stop).map (·.bytes mem)).getD [] =
        mpContentType (rangeAt mem start stop) ∧
      ∀ s ∈ mpContentTypeAt mem start stop, s.Within start stop := by
  rw [mpContentTypeAt, mpContentType]
  cases hk : memmemAt mem start stop (lit "Content-Type:") with
  | none =>
      rw [memmemAt, Option.map_eq_none_iff] at hk
      rw [hk]
      exact ⟨rfl, fun s hs => absurd hs (Option.not_mem_none s)⟩
  | some k =>
      obtain ⟨j, hj, rfl, hle⟩ := memmemAt_some h hstop hsize hk
      have hkey : (lit "Content-Type:").length = 13 := by decide
      rw [hkey] at hle
      obtain ⟨m, hct, hm, hspaces⟩ := skipSpaces_spec hle hstop hsize
      have hvalue : ((rangeAt mem start stop).drop (j + 13)).dropWhile (· == chSpace) =
          rangeAt mem (start + j + 13 + m) stop := by
        rw [rangeAt_drop (by omega) (by omega), ← Nat.add_assoc, hspaces,
          rangeAt_drop hm (by omega)]
      rw [hj, Option.map_some, Option.map_some, Option.getD_some]
      dsimp only
      rw [hvalue, hct]
      have hstart : start ≤ start + j + 13 + m := by omega
      obtain ⟨hbytes, hwithin⟩ := lineAt_spec hm hstop hsize
      refine ⟨hbytes, fun s hs => ?_⟩
      rw [← Option.mem_some_iff.mp hs]
      exact hwithin.mono hstart le_rfl

end Searches

-- ============================================================================
-- Parts
-- ============================================================================

/-- Every slice of the part lies between two pointers. -/
structure NtcMultipartPartAt.Within (p : NtcMultipartPartAt) (start stop : Nat) : Prop where
  name : ∀ s ∈ p.name, s.Within start stop
  filename : ∀ s ∈ p.filename, s.Within start stop
  contentType : ∀ s ∈ p.contentType, s.Within start stop
  data : p.data.Within start stop

theorem NtcMultipartPartAt.Within.mono {p : NtcMultipartPartAt} {start stop start' stop' : Nat}
    (h : p.Within start stop) (hstart : start' ≤ start) (hstop : stop ≤ stop') :
    p.Within start' stop' where
  name := fun s hs => (h.name s hs).mono hstart hstop
  filename := fun s hs => (h.filename s hs).mono hstart hstop
  contentType := fun s hs => (h.contentType s hs).mono hstart hstop
  data := h.data.mono hstart hstop

variable {mem : Bytes}

theorem mpPartAt_spec {start stop : Nat} (h : start ≤ stop) (hstop : stop ≤ mem.length)
    (hsize : mem.length < sizeMax) :
    (mpPartAt mem start stop).part mem = mpPart (rangeAt mem start stop) ∧
      (mpPartAt mem start stop).Within start stop := by
  rw [mpPartAt, mpPart]
  cases hend : memmemAt mem start stop (crlf ++ crlf) with
  | none =>
      obtain ⟨hdata, hdata'⟩ := sliceAt_spec h hstop hsize
      rw [memmemAt, Option.map_eq_none_iff] at hend
      rw [hend]
      dsimp only
      rw [Option.elim_none, NtcMultipartPartAt.part]
      dsimp only
      rw [hdata]
      exact ⟨rfl, fun s hs => absurd hs (Option.not_mem_none s),
        fun s hs => absurd hs (Option.not_mem_none s),
        fun s hs => absurd hs (Option.not_mem_none s), hdata'⟩
  | some hdrEnd =>
      obtain ⟨j, hj, rfl, hle⟩ := memmemAt_some h hstop hsize hend
      have hblank : (crlf ++ crlf).length = 4 := by decide
      rw [hblank] at hle
      have hle' : start + j ≤ stop := by omega
      have hhdr : (rangeAt mem start stop).take j = rangeAt mem start (start + j) :=
        rangeAt_take hle' (by omega)
      have hbody : (rangeAt mem start stop).drop (j + 4) = rangeAt mem (start + j + 4) stop := by
        rw [rangeAt_drop (by omega) (by omega), Nat.add_assoc]
      have hjle := Nat.le_add_right start j
      have hjstop := hle'.trans hstop
      obtain ⟨hname, hname'⟩ := mpQuotedAt_spec hjle hjstop hsize (lit "name=\"")
      obtain ⟨hfile, hfile'⟩ := mpQuotedAt_spec hjle hjstop hsize (lit "filename=\"")
      obtain ⟨htype, htype'⟩ := mpContentTypeAt_spec hjle hjstop hsize
      obtain ⟨hdata, hdata'⟩ := sliceAt_spec hle hstop hsize
      rw [hj, Option.elim_some, NtcMultipartPartAt.part]
      dsimp only
      refine ⟨?_, fun s hs => (hname' s hs).mono le_rfl hle',
        fun s hs => (hfile' s hs).mono le_rfl hle', fun s hs => (htype' s hs).mono le_rfl hle',
        hdata'.mono (by omega) le_rfl⟩
      rw [hname, hfile, htype, hdata, hhdr, hbody]

/-- The data of the one ends in front of the data of the other. -/
def DataBefore (p q : NtcMultipartPartAt) : Prop := p.data.ptr + p.data.len ≤ q.data.ptr

/-- `strncmp` of the two bytes behind a delimiter, if there are two. -/
theorem take_two_rangeAt {cur len : Nat} {x : Bytes} (hcur : cur ≤ len) (hlen : len ≤ mem.length)
    (hsize : mem.length < sizeMax) (hx : x.length = 2) :
    (rangeAt mem cur len).take 2 = x ↔ cur + 2 ≤ len ∧ (mem.drop cur).take 2 = x := by
  by_cases hle : cur + 2 ≤ len
  · rw [rangeAt_eq hcur (by omega), List.take_take, Nat.min_eq_left (by omega)]
    exact (and_iff_right hle).symm
  · have hlength := length_rangeAt hcur hlen hsize
    refine iff_of_false (fun h => ?_) fun h => hle h.1
    have htwo := congrArg List.length h
    rw [List.length_take, hx, hlength] at htwo
    omega

/-- What the loop promises of the parts it comes to. -/
structure PartsAt (mem : Bytes) (cur len n : Nat) (ps : List NtcMultipartPartAt)
    (parts : List NtcMultipartPart) : Prop where
  parts : ps.map (·.part mem) = parts
  count : ps.length ≤ n
  within : ∀ p ∈ ps, p.Within cur len
  increasing : ps.Pairwise DataBefore

theorem PartsAt.nil (cur len n : Nat) : PartsAt mem cur len n [] [] :=
  ⟨rfl, Nat.zero_le n, fun _ hp => absurd hp List.not_mem_nil, .nil⟩

/-- A part in front of the others: its data ends at the delimiter behind which
    they begin. -/
theorem PartsAt.cons {cur next start len n : Nat} {p : NtcMultipartPartAt}
    {ps : List NtcMultipartPartAt} {part : NtcMultipartPart} {parts : List NtcMultipartPart}
    (hpart : p.part mem = part) (hp : p.Within cur next) (hnext : next ≤ start)
    (hcur : cur ≤ start) (hlen : next ≤ len) (h : PartsAt mem start len n ps parts) :
    PartsAt mem cur len (n + 1) (p :: ps) (part :: parts) where
  parts := by rw [List.map_cons, hpart, h.parts]
  count := Nat.succ_le_succ h.count
  within := by
    intro q hq
    obtain rfl | hq := List.mem_cons.mp hq
    · exact hp.mono le_rfl hlen
    · exact (h.within q hq).mono hcur le_rfl
  increasing := by
    refine List.pairwise_cons.mpr ⟨fun q hq => ?_, h.increasing⟩
    exact (hp.data.2.trans hnext).trans (h.within q hq).data.1

theorem PartsAt.mono {cur cur' len n : Nat} {ps : List NtcMultipartPartAt}
    {parts : List NtcMultipartPart} (h : PartsAt mem cur len n ps parts) (hcur : cur' ≤ cur) :
    PartsAt mem cur' len n ps parts :=
  { h with within := fun p hp => (h.within p hp).mono hcur le_rfl }

theorem mpLoopAt_spec {len : Nat} {sep : Bytes} (hlen : len ≤ mem.length)
    (hsize : mem.length < sizeMax) (n : Nat) :
    ∀ cur ≤ len, PartsAt mem cur len n (mpLoopAt mem len sep n cur)
      (mpLoop sep n (rangeAt mem cur len)) := by
  induction n with
  | zero => exact fun cur _ => .nil cur len 0
  | succ n ih =>
      intro cur hcur
      have hlength := length_rangeAt hcur hlen hsize
      have hempty : (rangeAt mem cur len).isEmpty ↔ len ≤ cur := by
        rw [List.isEmpty_iff_length_eq_zero, hlength]
        omega
      have hdashes := take_two_rangeAt (x := lit "--") hcur hlen hsize (by decide)
      have hcrlf := take_two_rangeAt (x := crlf) hcur hlen hsize (by decide)
      rw [mpLoopAt, mpLoop]
      simp only [hempty, hdashes, hcrlf]
      by_cases hend : len ≤ cur
      · rw [if_pos hend, if_pos hend]
        exact .nil ..
      rw [if_neg hend, if_neg hend]
      by_cases hlast : cur + 2 ≤ len ∧ (mem.drop cur).take 2 = lit "--"
      · rw [if_pos hlast, if_pos hlast]
        exact .nil ..
      rw [if_neg hlast, if_neg hlast]
      by_cases hline : cur + 2 ≤ len ∧ (mem.drop cur).take 2 = crlf
      swap
      · rw [if_neg hline, if_neg hline]
        exact .nil ..
      rw [if_pos hline, if_pos hline, rangeAt_drop hline.1 (by omega)]
      cases hnext : memmemAt mem (cur + 2) len sep with
      | none =>
          rw [memmemAt, Option.map_eq_none_iff] at hnext
          rw [hnext, Option.elim_none]
          exact .nil ..
      | some next =>
          obtain ⟨j, hj, rfl, hsep⟩ := memmemAt_some hline.1 hlen hsize hnext
          have hjle : cur + 2 + j ≤ len := by omega
          rw [hj, Option.elim_some]
          dsimp only
          rw [rangeAt_take hjle (by omega), rangeAt_drop (by omega) (by omega), ← Nat.add_assoc]
          obtain ⟨hpart, hwithin⟩ :=
            mpPartAt_spec (Nat.le_add_right (cur + 2) j) (hjle.trans hlen) hsize
          refine (PartsAt.cons hpart hwithin (Nat.le_add_right _ sep.length) (by omega) hjle
            (ih _ hsep)).mono (by omega)

-- ============================================================================
-- Whole bodies
-- ============================================================================

/-- `ntc_multipart_parse` of a body in memory, whatever lies behind it: -1, or
    at most `max` parts whose slices lie in the body, the data of each behind
    that of the one before; and the bytes of the slices are the parts of the
    body. -/
theorem ntcMultipartParse_bounded (body beyond boundary : Bytes) (max : Nat)
    (hsize : (body ++ beyond).length < sizeMax) :
    (∀ ps ∈ ntcMultipartParseAt (body ++ beyond) body.length boundary max,
      ps.length ≤ max ∧ (∀ p ∈ ps, p.Within 0 body.length) ∧ ps.Pairwise DataBefore) ∧
    (ntcMultipartParseAt (body ++ beyond) body.length boundary max).map
      (·.map (·.part (body ++ beyond))) = ntcMultipartParse body boundary max := by
  have hlen : body.length ≤ (body ++ beyond).length := by
    rw [List.length_append]
    omega
  have hbody : rangeAt (body ++ beyond) 0 body.length = body := by
    rw [rangeAt_eq (Nat.zero_le _) (by omega), List.drop_zero, Nat.sub_zero, List.take_left]
  rw [ntcMultipartParseAt, ntcMultipartParse]
  by_cases hlong : 260 ≤ (lit "--" ++ cstr boundary).length
  · rw [if_pos hlong, if_pos hlong]
    exact ⟨fun ps hps => absurd hps (Option.not_mem_none ps), rfl⟩
  rw [if_neg hlong, if_neg hlong]
  cases hcur : memmemAt (body ++ beyond) 0 body.length (lit "--" ++ cstr boundary) with
  | none =>
      rw [memmemAt, Option.map_eq_none_iff, hbody] at hcur
      rw [hcur]
      exact ⟨fun ps hps => absurd hps (Option.not_mem_none ps), rfl⟩
  | some cur =>
      obtain ⟨j, hj, rfl, hdelim⟩ := memmemAt_some (Nat.zero_le _) hlen hsize hcur
      have hparts := @mpLoopAt_spec _ _ (crlf ++ (lit "--" ++ cstr boundary)) hlen hsize max _ hdelim
      rw [hbody] at hj
      rw [hj, Option.map_some, Option.map_some, Option.map_some]
      refine ⟨fun ps hps => ?_, ?_⟩
      · rw [← Option.mem_some_iff.mp hps]
        exact ⟨hparts.count, fun p hp => (hparts.within p hp).mono (Nat.zero_le _) le_rfl,
          hparts.increasing⟩
      · rw [hparts.parts, Nat.add_assoc, ← rangeAt_drop (by omega) (by omega), hbody]

/-- Two parts, the second with an empty name; a quote lies behind the body. -/
def twoParts : Bytes :=
  lit "--b\r\n\r\n\r\nx\r\n--b\r\nname=\"\"\r\n\r\n\r\n--b--"

theorem ntcMultipartParse_bounded_two :
    ntcMultipartParseAt (twoParts ++ [chQuote]) twoParts.length (lit "b") 8 =
        some [⟨none, none, none, ⟨9, 1⟩⟩, ⟨some ⟨23, 0⟩, none, none, ⟨28, 0⟩⟩] ∧
      (∀ ps ∈ ntcMultipartParseAt (twoParts ++ [chQuote]) twoParts.length (lit "b") 8,
        ps.length ≤ 8 ∧ (∀ p ∈ ps, p.Within 0 twoParts.length) ∧ ps.Pairwise DataBefore) ∧
      (ntcMultipartParseAt (twoParts ++ [chQuote]) twoParts.length (lit "b") 8).map
        (·.map (·.part (twoParts ++ [chQuote]))) = ntcMultipartParse twoParts (lit "b") 8 :=
  ⟨by decide +kernel, ntcMultipartParse_bounded twoParts [chQuote] (lit "b") 8 (by decide)⟩

end Naitron
