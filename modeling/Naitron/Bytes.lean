/-
  Naitron.Bytes

  Byte strings and the slice helpers of `src/common/slice.c`.

  An `ntc_slice` is a pointer and a length into some buffer; every function
  modelled here only reads the bytes it spans, so a slice is the list of
  those bytes.  A C string is the same list without a NUL: `cstr` is what
  `strlen` and `%s` see of a buffer, `clip` what `snprintf(dst, cap, "%s", s)`
  leaves in `dst`.
-/

import Mathlib.Data.List.TakeWhile
import Mathlib.Tactic

namespace Naitron

abbrev Bytes := List UInt8

/-- The bytes of an ASCII literal (`NTC_SLICE_LIT`, `ntc_slice_cstr("..")`). -/
def lit (s : String) : Bytes := s.toList.map fun c => UInt8.ofNat c.toNat

/-! ## Characters the code compares with -/

abbrev chSlash : UInt8 := 47
abbrev chColon : UInt8 := 58
abbrev chSpace : UInt8 := 32
abbrev chCr : UInt8 := 13
abbrev chLf : UInt8 := 10
abbrev chQuote : UInt8 := 34

abbrev crlf : Bytes := [chCr, chLf]

/-! ## C strings -/

/-- The C string held by a buffer: everything before the first NUL. -/
def cstr (s : Bytes) : Bytes := s.takeWhile (· ≠ 0)

/-- What `snprintf(dst, cap, "%s", s)` leaves in `dst`. -/
def clip (cap : Nat) (s : Bytes) : Bytes := (cstr s).take (cap - 1)

/-- A `char dst[cap]` that holds a C string: no NUL inside, room for the one
    behind it. -/
structure CStr (cap : Nat) where
  bytes : Bytes
  fits : bytes.length ≤ cap - 1
  noNul : 0 ∉ bytes
deriving DecidableEq

theorem clip_length_le (cap : Nat) (s : Bytes) : (clip cap s).length ≤ cap - 1 :=
  List.length_take_le (cap - 1) (cstr s)

theorem zero_notMem_clip (cap : Nat) (s : Bytes) : 0 ∉ clip cap s := by
  intro h
  have hc : (0 : UInt8) ∈ cstr s := List.mem_of_mem_take h
  have := List.mem_takeWhile_imp hc
  simp at this

theorem cstr_of_noNul {s : Bytes} (h : 0 ∉ s) : cstr s = s := by
  rw [cstr, List.takeWhile_eq_self_iff]
  intro c hc
  refine decide_eq_true fun hzero => h ?_
  rw [← hzero]
  exact hc

theorem clip_of_lt {cap : Nat} {s : Bytes} (h : s.length < cap) : clip cap s = cstr s := by
  have hlen : (cstr s).length ≤ s.length := (List.takeWhile_prefix _).length_le
  rw [clip, List.take_of_length_le (by omega)]

/-- A string without NULs goes through a buffer with room for it. -/
theorem clip_of_fits {cap : Nat} {s : Bytes} (hnul : 0 ∉ s) (hlen : s.length < cap) :
    clip cap s = s := by
  rw [clip_of_lt hlen, cstr_of_noNul hnul]

/-- `snprintf(dst, sizeof dst, "%s", s)`. -/
def CStr.set (cap : Nat) (s : Bytes) : CStr cap :=
  ⟨clip cap s, clip_length_le cap s, zero_notMem_clip cap s⟩

/-- The empty string, as `memset` leaves it. -/
def CStr.empty (cap : Nat) : CStr cap :=
  ⟨[], Nat.zero_le _, List.not_mem_nil⟩

/-! ## Slices -/

/-- `ntc_slice_starts_with`: the length test and `memcmp` together are the
    prefix test on bytes. -/
def ntcSliceStartsWith (a pre : Bytes) : Bool := pre.isPrefixOf a

theorem ntcSliceStartsWith_iff {a pre : Bytes} :
    ntcSliceStartsWith a pre = true ↔ pre <+: a := by
  simp [ntcSliceStartsWith]

/-- `is_space` of slice.c. -/
def isSpace (c : UInt8) : Bool :=
  c == 32 || c == 9 || c == 13 || c == 10 || c == 12 || c == 11

/-- `ntc_slice_trim`: ASCII white space off both ends. -/
def ntcSliceTrim (s : Bytes) : Bytes :=
  ((s.dropWhile isSpace).reverse.dropWhile isSpace).reverse

/-- `memchr`: the offset of the first `c`, `none` for the NULL result. -/
def memchr (s : Bytes) (c : UInt8) : Option Nat := s.findIdx? (· == c)

/-- `memchr` finds the first of a character. -/
theorem memchr_append {c : UInt8} : ∀ {a : Bytes}, c ∉ a → ∀ b : Bytes,
    memchr (a ++ c :: b) c = some a.length
  | [], _, b => by
      rw [memchr, List.nil_append, List.findIdx?_cons, if_pos (by simp)]
      rfl
  | x :: a, h, b => by
      obtain ⟨hx, ha⟩ := not_or.mp (fun hor => h (List.mem_cons.mpr hor))
      have ih := memchr_append ha b
      rw [memchr] at ih ⊢
      rw [List.cons_append, List.findIdx?_cons, if_neg (by simpa using fun heq => hx heq.symm), ih]
      rfl

theorem memchr_some {c : UInt8} : ∀ {s : Bytes} {i : Nat}, memchr s c = some i →
    s = s.take i ++ c :: s.drop (i + 1) ∧ c ∉ s.take i
  | [], _, h => by cases h
  | x :: s, i, h => by
      rw [memchr, List.findIdx?_cons] at h
      split at h
      · rename_i hx
        cases h
        obtain rfl : x = c := by simpa using hx
        exact ⟨rfl, List.not_mem_nil⟩
      · rename_i hx
        obtain ⟨j, hj, rfl⟩ := Option.map_eq_some_iff.mp h
        obtain ⟨heq, hno⟩ := memchr_some (s := s) hj
        refine ⟨?_, ?_⟩
        · conv_lhs => rw [heq]
          rfl
        · rw [List.take_succ_cons, List.mem_cons, not_or]
          exact ⟨fun h => hx (by simp [h]), hno⟩

/-- `memchr` splits a string. -/
theorem memchr_split {c : UInt8} {s : Bytes} {i : Nat} (h : memchr s c = some i) :
    ∃ a b, s = a ++ c :: b ∧ c ∉ a ∧ a.length = i := by
  obtain ⟨heq, hno⟩ := memchr_some h
  refine ⟨s.take i, s.drop (i + 1), heq, hno, ?_⟩
  have hlen := congrArg List.length heq
  simp only [List.length_append, List.length_cons, List.length_drop, List.length_take] at hlen ⊢
  omega

/-- `slice_has` of server.c: a non-empty needle occurs somewhere in `hay`. -/
def sliceHas (hay needle : Bytes) : Bool :=
  !needle.isEmpty && hay.tails.any fun t => needle.isPrefixOf t

/-- `lc` of http_request.c. -/
def lc (c : UInt8) : UInt8 := if 65 ≤ c ∧ c ≤ 90 then c - 65 + 97 else c

/-- `islabel_eq`: equality of header names up to ASCII case. -/
def islabelEq (a b : Bytes) : Bool := a.map lc == b.map lc

/-! ## Numbers in text -/

/-- `%d` / `%zu` of a natural number. -/
def decimal (n : Nat) : Bytes := (Nat.toDigits 10 n).map fun c => UInt8.ofNat c.toNat

/-- `%zx` of a natural number. -/
def hex (n : Nat) : Bytes := (Nat.toDigits 16 n).map fun c => UInt8.ofNat c.toNat

/-! ## Big-endian integers (wire.c) -/

def putU16 (v : Nat) : Bytes := [UInt8.ofNat (v / 2 ^ 8), UInt8.ofNat v]

def putU32 (v : Nat) : Bytes :=
  [UInt8.ofNat (v / 2 ^ 24), UInt8.ofNat (v / 2 ^ 16), UInt8.ofNat (v / 2 ^ 8), UInt8.ofNat v]

/-- Value of a big-endian byte string (`get_u16` / `get_u32` at the lengths
    2 and 4). -/
def getBe (s : Bytes) : Nat := s.foldl (fun acc b => acc * 2 ^ 8 + b.toNat) 0

/-- `n` bytes hold a number below `256 ^ n`. -/
theorem getBe_lt {s : Bytes} {n : Nat} (h : s.length = n) : getBe s < 2 ^ (8 * n) := by
  subst h
  induction s using List.reverseRecOn with
  | nil => decide
  | append_singleton s b ih =>
      have hb := b.toNat_lt
      have hstep : getBe (s ++ [b]) = getBe s * 2 ^ 8 + b.toNat := by
        simp [getBe]
      have hpow : (2 : Nat) ^ (8 * (s ++ [b]).length) = 2 ^ (8 * s.length) * 2 ^ 8 := by
        rw [List.length_append, List.length_singleton, Nat.mul_add, Nat.pow_add]
      rw [hstep, hpow]
      omega

theorem length_putU16 (v : Nat) : (putU16 v).length = 2 := rfl

theorem length_putU32 (v : Nat) : (putU32 v).length = 4 := rfl

theorem getBe_putU16 (v : Nat) : getBe (putU16 v) = v % 2 ^ 16 := by
  simp only [getBe, putU16, List.foldl_cons, List.foldl_nil, UInt8.toNat_ofNat']
  omega

theorem getBe_putU32 (v : Nat) : getBe (putU32 v) = v % 2 ^ 32 := by
  simp only [getBe, putU32, List.foldl_cons, List.foldl_nil, UInt8.toNat_ofNat']
  omega

/-- The number two bytes hold, written again. -/
theorem putU16_getBe {s : Bytes} (h : s.length = 2) : putU16 (getBe s) = s := by
  match s, h with
  | [a, b], _ =>
      have ha := a.toNat_lt
      have hb := b.toNat_lt
      simp only [putU16, getBe, List.foldl_cons, List.foldl_nil, List.cons.injEq, and_true]
      refine ⟨UInt8.toNat_inj.mp ?_, UInt8.toNat_inj.mp ?_⟩ <;>
        rw [UInt8.toNat_ofNat'] <;> omega

theorem putU32_getBe {s : Bytes} (h : s.length = 4) : putU32 (getBe s) = s := by
  match s, h with
  | [a, b, c, d], _ =>
      have ha := a.toNat_lt
      have hb := b.toNat_lt
      have hc := c.toNat_lt
      have hd := d.toNat_lt
      simp only [putU32, getBe, List.foldl_cons, List.foldl_nil, List.cons.injEq, and_true]
      refine ⟨UInt8.toNat_inj.mp ?_, UInt8.toNat_inj.mp ?_, UInt8.toNat_inj.mp ?_,
        UInt8.toNat_inj.mp ?_⟩ <;> rw [UInt8.toNat_ofNat'] <;> omega

end Naitron
