/-
  Naitron.Lib.FormUrl

  The application/x-www-form-urlencoded format: fields `name=value` between
  ampersands, values percent-encoded, a plus sign for a space.

  Decoding reads a percent sign with two hexadecimal digits as a byte and any
  other percent sign as itself.  Cutting a value short changes what it decodes
  to, but for the few cuts through an escaped percent sign that
  `take_formDecode_take_iff` lists.
-/

import Mathlib.Tactic

namespace Naitron.Lib

-- ============================================================================
-- Decoding
-- ============================================================================

/-- Value of a hexadecimal digit. -/
def hexValue (c : UInt8) : Option ℕ :=
  if 48 ≤ c ∧ c ≤ 57 then some (c.toNat - 48)
  else if 97 ≤ c ∧ c ≤ 102 then some (c.toNat - 97 + 10)
  else if 65 ≤ c ∧ c ≤ 70 then some (c.toNat - 65 + 10)
  else none

/-- The byte of two hexadecimal digits. -/
def hexByte (d e : UInt8) : Option UInt8 :=
  (hexValue d).bind fun hi => (hexValue e).map fun lo => UInt8.ofNat (hi * 16 + lo)

/-- A character that is not part of an escape. -/
def plusChar (c : UInt8) : UInt8 := if c = 43 then 32 else c

/-- The value of a field. -/
def formDecode : List UInt8 → List UInt8
  | [] => []
  | [c] => [plusChar c]
  | [c, d] => [plusChar c, plusChar d]
  | c :: d :: e :: rest =>
      match if c = 37 then hexByte d e else none with
      | some b => b :: formDecode rest
      | none => plusChar c :: formDecode (d :: e :: rest)

/-- An escape at the front. -/
def StartsEscape (s : List UInt8) : Prop :=
  ∃ d e rest b, s = 37 :: d :: e :: rest ∧ hexByte d e = some b

theorem formDecode_escape {d e b : UInt8} (h : hexByte d e = some b) (rest : List UInt8) :
    formDecode (37 :: d :: e :: rest) = b :: formDecode rest := by
  rw [formDecode, if_pos rfl, h]

theorem formDecode_plain {c : UInt8} {s : List UInt8} (h : ¬ StartsEscape (c :: s)) :
    formDecode (c :: s) = plusChar c :: formDecode s := by
  rcases s with _ | ⟨d, _ | ⟨e, rest⟩⟩
  · rfl
  · rfl
  · rw [formDecode]
    split_ifs with hc
    · cases hb : hexByte d e with
      | none => rfl
      | some b => exact absurd ⟨d, e, rest, b, by rw [hc], hb⟩ h
    · rfl

/-- A string is empty, begins with an escape, or with a character that stands
    for itself. -/
theorem formDecode_cases (s : List UInt8) :
    s = [] ∨ (∃ d e rest b, s = 37 :: d :: e :: rest ∧ hexByte d e = some b) ∨
      ∃ c rest, s = c :: rest ∧ ¬ StartsEscape (c :: rest) := by
  by_cases h : StartsEscape s
  · exact Or.inr (Or.inl h)
  · cases s with
    | nil => exact Or.inl rfl
    | cons c rest => exact Or.inr (Or.inr ⟨c, rest, rfl, h⟩)

theorem formDecode_eq_nil_iff (s : List UInt8) : formDecode s = [] ↔ s = [] := by
  rcases formDecode_cases s with rfl | ⟨d, e, rest, b, rfl, hb⟩ | ⟨c, rest, rfl, hc⟩
  · exact Iff.rfl
  · rw [formDecode_escape hb]
    exact iff_of_false (List.cons_ne_nil _ _) (List.cons_ne_nil _ _)
  · rw [formDecode_plain hc]
    exact iff_of_false (List.cons_ne_nil _ _) (List.cons_ne_nil _ _)

-- ============================================================================
-- Encoding
-- ============================================================================

/-- The unreserved characters. -/
def isUnreserved (c : UInt8) : Bool :=
  (48 ≤ c && c ≤ 57) || (65 ≤ c && c ≤ 90) || (97 ≤ c && c ≤ 122)
    || c == 45 || c == 95 || c == 46 || c == 126

/-- A hexadecimal digit, upper case. -/
def hexDigitOf (n : ℕ) : UInt8 := if n < 10 then UInt8.ofNat (48 + n) else UInt8.ofNat (55 + n)

/-- A byte of a value. -/
def encodeByte (c : UInt8) : List UInt8 :=
  if isUnreserved c then [c] else [37, hexDigitOf (c.toNat / 16), hexDigitOf (c.toNat % 16)]

/-- A value, percent-encoded. -/
def formEncode (s : List UInt8) : List UInt8 := s.flatMap encodeByte

/-- A byte is read back from its code. -/
theorem hexByte_encode (c : UInt8) :
    hexByte (hexDigitOf (c.toNat / 16)) (hexDigitOf (c.toNat % 16)) = some c := by
  have hbytes : ∀ n : Fin 256, hexByte (hexDigitOf ((UInt8.ofNat n.val).toNat / 16))
      (hexDigitOf ((UInt8.ofNat n.val).toNat % 16)) = some (UInt8.ofNat n.val) := by
    decide +kernel
  have hc := hbytes ⟨c.toNat, c.toNat_lt⟩
  rwa [UInt8.ofNat_toNat] at hc

theorem unreserved_plain {c : UInt8} (h : isUnreserved c = true) : c ≠ 37 ∧ plusChar c = c := by
  refine ⟨?_, ?_⟩
  · rintro rfl
    exact absurd h (by decide)
  · rw [plusChar, if_neg]
    rintro rfl
    exact absurd h (by decide)

/-- Decoding takes an encoded value off the front. -/
theorem formDecode_formEncode_append (s rest : List UInt8) :
    formDecode (formEncode s ++ rest) = s ++ formDecode rest := by
  induction s with
  | nil => rfl
  | cons c s ih =>
      have hcons : formEncode (c :: s) ++ rest = encodeByte c ++ (formEncode s ++ rest) := by
        rw [formEncode, List.flatMap_cons, List.append_assoc]
        rfl
      rw [hcons, encodeByte]
      split_ifs with hsafe
      · obtain ⟨hpct, hplus⟩ := unreserved_plain hsafe
        have hplain : ¬ StartsEscape (c :: (formEncode s ++ rest)) := by
          rintro ⟨d, e, r, b, heq, _⟩
          exact hpct (List.cons_eq_cons.mp heq).1
        rw [List.singleton_append, formDecode_plain hplain, hplus, ih, List.cons_append]
      · show formDecode (37 :: _ :: _ :: (formEncode s ++ rest)) = _
        rw [formDecode_escape (hexByte_encode c), ih, List.cons_append]

/-- Decoding undoes encoding. -/
theorem formDecode_formEncode (s : List UInt8) : formDecode (formEncode s) = s := by
  have h := formDecode_formEncode_append s []
  rwa [List.append_nil, formDecode, List.append_nil] at h

-- ============================================================================
-- Cut values
-- ============================================================================

theorem hexValue_lt {c : UInt8} {n : ℕ} (h : hexValue c = some n) : n < 16 := by
  rw [hexValue] at h
  split_ifs at h with h1 h2 h3
  · have hle := UInt8.le_iff_toNat_le.mp h1.2
    have hn := Option.some.inj h
    change c.toNat ≤ 57 at hle
    omega
  · have hle := UInt8.le_iff_toNat_le.mp h2.2
    have hn := Option.some.inj h
    change c.toNat ≤ 102 at hle
    omega
  · have hle := UInt8.le_iff_toNat_le.mp h3.2
    have hn := Option.some.inj h
    change c.toNat ≤ 70 at hle
    omega

/-- A decimal digit has one spelling. -/
theorem hexValue_decimal {c : UInt8} {n : ℕ} (h : hexValue c = some n) (hn : n < 10) :
    c = UInt8.ofNat (48 + n) := by
  rw [hexValue] at h
  split_ifs at h with h1 h2 h3
  · have hge := UInt8.le_iff_toNat_le.mp h1.1
    have heq := Option.some.inj h
    change 48 ≤ c.toNat at hge
    rw [← UInt8.ofNat_toNat (x := c)]
    congr 1
    omega
  · have heq := Option.some.inj h
    omega
  · have heq := Option.some.inj h
    omega

theorem hexByte_some {d e b : UInt8} (h : hexByte d e = some b) :
    hexValue d = some (b.toNat / 16) ∧ hexValue e = some (b.toNat % 16) := by
  obtain ⟨hi, hhi, hmap⟩ := Option.bind_eq_some_iff.mp h
  obtain ⟨lo, hlo, hb⟩ := Option.map_eq_some_iff.mp hmap
  have h1 := hexValue_lt hhi
  have h2 := hexValue_lt hlo
  have hval : b.toNat = hi * 16 + lo := by
    rw [← hb, UInt8.toNat_ofNat']
    omega
  rw [hhi, hlo]
  refine ⟨?_, ?_⟩
  · congr 1
    omega
  · congr 1
    omega

/-- `%25` is the only escape of a percent sign. -/
theorem hexByte_percent {d e : UInt8} (h : hexByte d e = some 37) : d = 50 ∧ e = 53 :=
  ⟨hexValue_decimal (hexByte_some h).1 (by decide),
    hexValue_decimal (hexByte_some h).2 (by decide)⟩

/-- The two spellings of the digit two. -/
theorem formDecode_eq_two_iff (s : List UInt8) :
    formDecode s = [50] ↔ s = [50] ∨ s = [37, 51, 50] := by
  constructor
  · intro h
    rcases formDecode_cases s with rfl | ⟨d, e, rest, b, rfl, hb⟩ | ⟨c, rest, rfl, hc⟩
    · exact absurd h.symm (List.cons_ne_nil _ _)
    · rw [formDecode_escape hb] at h
      obtain ⟨hb50, hrest⟩ := List.cons_eq_cons.mp h
      rw [hb50] at hb
      have hd := hexValue_decimal (hexByte_some hb).1 (by decide)
      have he := hexValue_decimal (hexByte_some hb).2 (by decide)
      rw [(formDecode_eq_nil_iff rest).mp hrest, hd, he]
      exact Or.inr rfl
    · rw [formDecode_plain hc] at h
      obtain ⟨hc50, hrest⟩ := List.cons_eq_cons.mp h
      rw [(formDecode_eq_nil_iff rest).mp hrest]
      rw [plusChar] at hc50
      split_ifs at hc50 with hplus
      · exact absurd hc50 (by decide)
      · exact Or.inl (by rw [hc50])
  · rintro (rfl | rfl)
    · rfl
    · rfl

/-- `v` ends in `tail`, and `n` is `j` characters into it. -/
def CutAt (v : List UInt8) (n j : ℕ) (tail : List UInt8) : Prop :=
  ∃ before, n = before.length + j ∧ v = before ++ tail

/-- The cut is behind a character that begins no escape, or behind the escape
    that it begins. -/
theorem CutAt.cons_iff {c : UInt8} {v tail : List UInt8} {n j : ℕ}
    (hc : StartsEscape (c :: v) → 2 ≤ n) (htail : StartsEscape tail) (hj : j ≤ 2) :
    CutAt (c :: v) (n + 1) j tail ↔ CutAt v n j tail := by
  constructor
  · rintro ⟨before, hn, hv⟩
    cases before with
    | nil =>
        rw [List.nil_append] at hv
        rw [← hv] at htail
        have htwo := hc htail
        rw [List.length_nil] at hn
        omega
    | cons b before =>
        rw [List.length_cons] at hn
        rw [List.cons_append, List.cons_eq_cons] at hv
        exact ⟨before, by omega, hv.2⟩
  · rintro ⟨before, hn, hv⟩
    refine ⟨c :: before, ?_, by rw [hv, List.cons_append]⟩
    rw [List.length_cons]
    omega

theorem not_startsEscape_of_ne {c : UInt8} (h : c ≠ 37) (s : List UInt8) :
    ¬ StartsEscape (c :: s) := by
  rintro ⟨d, e, rest, b, heq, _⟩
  exact h (List.cons_eq_cons.mp heq).1

theorem not_startsEscape_take {c : UInt8} {s : List UInt8} (h : ¬ StartsEscape (c :: s)) (n : ℕ) :
    ¬ StartsEscape (c :: s.take n) := by
  rintro ⟨d, e, r, b, heq, hb⟩
  refine h ⟨d, e, r ++ s.drop n, b, ?_, hb⟩
  rw [← List.cons_append, ← List.cons_append, ← List.cons_append, ← heq, List.cons_append,
    List.take_append_drop]

theorem hexValue_ne_percent {c : UInt8} {n : ℕ} (h : hexValue c = some n) : c ≠ 37 := by
  rintro rfl
  exact absurd h (Option.some_ne_none n).symm

theorem hexValue_plusChar {c : UInt8} {n : ℕ} (h : hexValue c = some n) : plusChar c = c := by
  rw [plusChar, if_neg]
  rintro rfl
  exact absurd h (Option.some_ne_none n).symm

/-- An escape that lacks its last digit stands for itself. -/
theorem formDecode_short_escape {d : UInt8} {n : ℕ} (h : hexValue d = some n) :
    formDecode [37, d] = [37, d] := by
  rw [formDecode, hexValue_plusChar h]
  rfl

/-- The cuts through an escaped percent sign after which what is left of the
    escape stands for the rest of the value. -/
def CutsEscapedPercent (v : List UInt8) (n : ℕ) : Prop :=
  CutAt v n 1 [37, 50, 53] ∨ CutAt v n 2 [37, 50, 53, 50] ∨
    CutAt v n 2 [37, 50, 53, 37, 51, 50]

theorem startsEscape_percent (s : List UInt8) : StartsEscape (37 :: 50 :: 53 :: s) :=
  ⟨50, 53, s, 37, rfl, rfl⟩

theorem CutsEscapedPercent.cons_iff {c : UInt8} {v : List UInt8} {n : ℕ}
    (hc : StartsEscape (c :: v) → 2 ≤ n) :
    CutsEscapedPercent (c :: v) (n + 1) ↔ CutsEscapedPercent v n := by
  rw [CutsEscapedPercent, CutAt.cons_iff hc (startsEscape_percent _) (by omega),
    CutAt.cons_iff hc (startsEscape_percent _) (by omega),
    CutAt.cons_iff hc (startsEscape_percent _) (by omega)]
  rfl

theorem CutAt.start_iff {v tail : List UInt8} {n : ℕ} : CutAt v n n tail ↔ v = tail := by
  constructor
  · rintro ⟨before, hn, hv⟩
    obtain rfl := List.length_eq_zero_iff.mp (show before.length = 0 by omega)
    exact hv
  · intro hv
    exact ⟨[], (Nat.zero_add n).symm, hv⟩

theorem CutAt.le {v tail : List UInt8} {n j : ℕ} (h : CutAt v n j tail) : j ≤ n := by
  obtain ⟨before, hn, _⟩ := h
  omega

/-- Only the percent sign of an escape is left. -/
theorem take_formDecode_percent_iff {d e b : UInt8} (hb : hexByte d e = some b)
    (rest : List UInt8) (k : ℕ) :
    [37] = b :: formDecode rest ↔
      (b :: formDecode rest).length ≤ k + 1 ∧
        ((37 :: d :: e :: rest).length ≤ 1 ∨ CutsEscapedPercent (37 :: d :: e :: rest) 1 ∨
          (k + 1 = (b :: formDecode rest).length ∧
            CutAt (37 :: d :: e :: rest) 1 2 [37, 50, 53])) := by
  rw [List.cons_eq_cons, eq_comm (a := []), formDecode_eq_nil_iff]
  constructor
  · rintro ⟨rfl, rfl⟩
    obtain ⟨rfl, rfl⟩ := hexByte_percent hb
    exact ⟨Nat.succ_le_succ (Nat.zero_le k), Or.inr (Or.inl (Or.inl (CutAt.start_iff.mpr rfl)))⟩
  · rintro ⟨_, h | (h | h | h) | ⟨_, h⟩⟩
    · simp only [List.length_cons] at h
      omega
    · have hv := CutAt.start_iff.mp h
      rw [List.cons_eq_cons, List.cons_eq_cons, List.cons_eq_cons] at hv
      obtain ⟨_, rfl, rfl, hrest⟩ := hv
      exact ⟨Option.some.inj hb, hrest⟩
    · exact absurd h.le (by omega)
    · exact absurd h.le (by omega)
    · exact absurd h.le (by omega)

/-- The percent sign of an escape and its first digit are left. -/
theorem take_formDecode_digit_iff {d e b : UInt8} (hb : hexByte d e = some b)
    (rest : List UInt8) (k : ℕ) :
    37 :: [d].take k = b :: formDecode rest ↔
      (b :: formDecode rest).length ≤ k + 1 ∧
        ((37 :: d :: e :: rest).length ≤ 2 ∨ CutsEscapedPercent (37 :: d :: e :: rest) 2 ∨
          (k + 1 = (b :: formDecode rest).length ∧
            CutAt (37 :: d :: e :: rest) 2 2 [37, 50, 53])) := by
  rw [List.cons_eq_cons, List.length_cons]
  constructor
  · rintro ⟨rfl, hrest⟩
    obtain ⟨rfl, rfl⟩ := hexByte_percent hb
    cases k with
    | zero =>
        rw [List.take_zero, eq_comm, formDecode_eq_nil_iff] at hrest
        subst hrest
        exact ⟨Nat.le_refl 1, Or.inr (Or.inr ⟨rfl, CutAt.start_iff.mpr rfl⟩)⟩
    | succ k =>
        rw [List.take_succ_cons, List.take_nil] at hrest
        rw [← hrest]
        refine ⟨Nat.succ_le_succ (Nat.succ_le_succ (Nat.zero_le k)), Or.inr (Or.inl (Or.inr ?_))⟩
        rcases (formDecode_eq_two_iff rest).mp hrest.symm with rfl | rfl
        · exact Or.inl (CutAt.start_iff.mpr rfl)
        · exact Or.inr (CutAt.start_iff.mpr rfl)
  · rintro ⟨hk, h | (h | h | h) | ⟨hkeq, h⟩⟩
    · simp only [List.length_cons] at h
      omega
    · -- the second character of an escape is not a percent sign
      obtain ⟨before, hn, hv⟩ := h
      obtain ⟨x, rfl⟩ := List.length_eq_one_iff.mp (show before.length = 1 by omega)
      rw [List.singleton_append, List.cons_eq_cons, List.cons_eq_cons] at hv
      exact absurd hv.2.1 (hexValue_ne_percent (hexByte_some hb).1)
    · have hv := CutAt.start_iff.mp h
      rw [List.cons_eq_cons, List.cons_eq_cons, List.cons_eq_cons] at hv
      obtain ⟨_, rfl, rfl, rfl⟩ := hv
      have htwo : (formDecode [50]).length = 1 := rfl
      exact ⟨Option.some.inj hb, List.take_of_length_le (by rw [List.length_singleton]; omega)⟩
    · have hv := CutAt.start_iff.mp h
      rw [List.cons_eq_cons, List.cons_eq_cons, List.cons_eq_cons] at hv
      obtain ⟨_, rfl, rfl, rfl⟩ := hv
      have htwo : (formDecode [37, 51, 50]).length = 1 := rfl
      exact ⟨Option.some.inj hb, List.take_of_length_le (by rw [List.length_singleton]; omega)⟩
    · have hv := CutAt.start_iff.mp h
      rw [List.cons_eq_cons, List.cons_eq_cons, List.cons_eq_cons] at hv
      obtain ⟨_, rfl, rfl, rfl⟩ := hv
      have hzero : (formDecode []).length = 0 := rfl
      obtain rfl : k = 0 := by omega
      exact ⟨Option.some.inj hb, rfl⟩

/-- Cutting a value at `n` characters and what it decodes to at `k` keeps it
    only where nothing is cut, or by a cut through an escaped percent sign. -/
theorem take_formDecode_take_iff (v : List UInt8) (n k : ℕ) :
    (formDecode (v.take n)).take k = formDecode v ↔
      (formDecode v).length ≤ k ∧
        (v.length ≤ n ∨ CutsEscapedPercent v n ∨
          (k = (formDecode v).length ∧ CutAt v n 2 [37, 50, 53])) := by
  induction hlen : v.length using Nat.strong_induction_on generalizing v n k with
  | _ len ih =>
  subst hlen
  by_cases hv : v = []
  · rw [hv, List.take_nil, formDecode, List.take_nil]
    exact iff_of_true rfl ⟨Nat.zero_le _, Or.inl (Nat.zero_le _)⟩
  have hdec : formDecode v ≠ [] := fun h => hv ((formDecode_eq_nil_iff v).mp h)
  rcases n with _ | n
  · rw [List.take_zero, formDecode, List.take_nil]
    refine iff_of_false (fun h => hdec h.symm) ?_
    rintro ⟨_, h | (h | h | h) | ⟨_, h⟩⟩
    · exact hv (List.length_eq_zero_iff.mp (Nat.le_zero.mp h))
    · exact absurd h.le (by omega)
    · exact absurd h.le (by omega)
    · exact absurd h.le (by omega)
    · exact absurd h.le (by omega)
  rcases k with _ | k
  · rw [List.take_zero]
    refine iff_of_false (fun h => hdec h.symm) fun h => ?_
    exact hdec (List.length_eq_zero_iff.mp (Nat.le_zero.mp h.1))
  rcases formDecode_cases v with rfl | ⟨d, e, rest, b, rfl, hb⟩ | ⟨c, rest, rfl, hc⟩
  · exact absurd rfl hv
  · obtain ⟨hd, he⟩ := hexByte_some hb
    rw [formDecode_escape hb]
    rcases n with _ | _ | m
    · have hcut : (formDecode ((37 :: d :: e :: rest).take 1)).take (k + 1) = [37] := by
        rw [List.take_succ_cons, List.take_zero]
        show [37].take (k + 1) = [37]
        rw [List.take_succ_cons, List.take_nil]
      rw [hcut]
      exact take_formDecode_percent_iff hb rest k
    · rw [List.take_succ_cons, List.take_succ_cons, List.take_zero, formDecode_short_escape hd,
        List.take_succ_cons]
      exact take_formDecode_digit_iff hb rest k
    · -- the whole escape is left
      have hrest := ih rest.length (by simp only [List.length_cons]; omega) rest m k rfl
      have htake : (37 :: d :: e :: rest).take (m + 1 + 1 + 1) = 37 :: d :: e :: rest.take m := rfl
      have h1 : StartsEscape (37 :: d :: e :: rest) → 2 ≤ m + 1 + 1 := fun _ => by omega
      have h2 : StartsEscape (d :: e :: rest) → 2 ≤ m + 1 := fun hs =>
        absurd hs (not_startsEscape_of_ne (hexValue_ne_percent hd) _)
      have h3 : StartsEscape (e :: rest) → 2 ≤ m := fun hs =>
        absurd hs (not_startsEscape_of_ne (hexValue_ne_percent he) _)
      rw [htake, formDecode_escape hb, List.take_succ_cons, List.cons_inj_right, hrest,
        CutsEscapedPercent.cons_iff h1, CutsEscapedPercent.cons_iff h2,
        CutsEscapedPercent.cons_iff h3, CutAt.cons_iff h1 (startsEscape_percent _) (le_refl 2),
        CutAt.cons_iff h2 (startsEscape_percent _) (le_refl 2),
        CutAt.cons_iff h3 (startsEscape_percent _) (le_refl 2)]
      simp only [List.length_cons]
      refine and_congr (by omega)
        (or_congr (by omega) (or_congr Iff.rfl (and_congr (by omega) Iff.rfl)))
  · have htake := not_startsEscape_take hc n
    have hrest := ih rest.length (by simp only [List.length_cons]; omega) rest n k rfl
    have h1 : StartsEscape (c :: rest) → 2 ≤ n := fun hs => absurd hs hc
    rw [List.take_succ_cons, formDecode_plain htake, formDecode_plain hc, List.take_succ_cons,
      List.cons_inj_right, hrest, CutsEscapedPercent.cons_iff h1,
      CutAt.cons_iff h1 (startsEscape_percent _) (le_refl 2)]
    simp only [List.length_cons]
    refine and_congr (by omega) (or_congr (by omega) (or_congr Iff.rfl (and_congr (by omega) Iff.rfl)))

/-- A cut brings in percent signs and digits only. -/
theorem notMem_formDecode_take {x : UInt8} (hx : x ≠ 37) (hdigit : hexValue x = none)
    (v : List UInt8) (n : ℕ) (h : x ∉ formDecode v) : x ∉ formDecode (v.take n) := by
  induction hlen : v.length using Nat.strong_induction_on generalizing v n with
  | _ len ih =>
  subst hlen
  rcases n with _ | n
  · exact List.not_mem_nil
  rcases formDecode_cases v with rfl | ⟨d, e, rest, b, rfl, hb⟩ | ⟨c, rest, rfl, hc⟩
  · exact h
  · obtain ⟨hd, he⟩ := hexByte_some hb
    rw [formDecode_escape hb, List.mem_cons, not_or] at h
    have hxd : x ≠ d := by
      rintro rfl
      rw [hdigit] at hd
      exact absurd hd.symm (Option.some_ne_none _)
    rcases n with _ | _ | m
    · rw [List.take_succ_cons, List.take_zero]
      exact fun hmem => hx (List.mem_singleton.mp hmem)
    · rw [List.take_succ_cons, List.take_succ_cons, List.take_zero, formDecode_short_escape hd]
      intro hmem
      rcases List.mem_cons.mp hmem with hmem | hmem
      · exact hx hmem
      · exact hxd (List.mem_singleton.mp hmem)
    · have htake : (37 :: d :: e :: rest).take (m + 1 + 1 + 1) = 37 :: d :: e :: rest.take m := rfl
      rw [htake, formDecode_escape hb, List.mem_cons, not_or]
      exact ⟨h.1, ih rest.length (by simp only [List.length_cons]; omega) rest m h.2 rfl⟩
  · rw [formDecode_plain hc, List.mem_cons, not_or] at h
    rw [List.take_succ_cons, formDecode_plain (not_startsEscape_take hc n), List.mem_cons, not_or]
    exact ⟨h.1, ih rest.length (by simp only [List.length_cons]; omega) rest n h.2 rfl⟩

/-- A character without a meaning of its own is still there. -/
theorem mem_formDecode {x : UInt8} (hx : x ≠ 37) (hplus : plusChar x = x)
    (hdigit : hexValue x = none) (v : List UInt8) (h : x ∈ v) : x ∈ formDecode v := by
  induction hlen : v.length using Nat.strong_induction_on generalizing v with
  | _ len ih =>
  subst hlen
  rcases formDecode_cases v with rfl | ⟨d, e, rest, b, rfl, hb⟩ | ⟨c, rest, rfl, hc⟩
  · exact h
  · obtain ⟨hd, he⟩ := hexByte_some hb
    have hne : ∀ {y : UInt8} {n : ℕ}, hexValue y = some n → x ≠ y := by
      rintro y n hy rfl
      rw [hdigit] at hy
      exact absurd hy.symm (Option.some_ne_none n)
    rw [List.mem_cons, List.mem_cons, List.mem_cons, or_iff_right hx, or_iff_right (hne hd),
      or_iff_right (hne he)] at h
    rw [formDecode_escape hb]
    exact List.mem_cons_of_mem b
      (ih rest.length (by simp only [List.length_cons]; omega) rest h rfl)
  · rw [formDecode_plain hc]
    rcases List.mem_cons.mp h with rfl | hmem
    · rw [hplus]
      exact List.mem_cons_self
    · exact List.mem_cons_of_mem _
        (ih rest.length (by simp only [List.length_cons]; omega) rest hmem rfl)

-- ============================================================================
-- Fields
-- ============================================================================

/-- The value of a field with this name. -/
def fieldValue (name field : List UInt8) : Option (List UInt8) :=
  if (name ++ [61]).isPrefixOf field then some (field.drop (name.length + 1)) else none

/-- The value of the first field with this name, still encoded. -/
def formField (name s : List UInt8) : Option (List UInt8) :=
  (s.splitOn 38).findSome? (fieldValue name)

/-- The field in front comes first. -/
theorem formField_append {field : List UInt8} (h : 38 ∉ field) (name rest : List UInt8) :
    formField name (field ++ 38 :: rest) = (fieldValue name field).or (formField name rest) := by
  rw [formField, List.splitOn_append_cons_self, List.splitOn_eq_singleton h,
    List.singleton_append, List.findSome?_cons]
  cases fieldValue name field with
  | none => rfl
  | some v => rfl

theorem formField_single {field : List UInt8} (h : 38 ∉ field) (name : List UInt8) :
    formField name field = fieldValue name field := by
  rw [formField, List.splitOn_eq_singleton h, List.findSome?_singleton]

theorem fieldValue_eq_some_iff (name field value : List UInt8) :
    fieldValue name field = some value ↔ field = name ++ 61 :: value := by
  rw [fieldValue]
  constructor
  · intro h
    split_ifs at h with hprefix
    obtain ⟨rest, rfl⟩ := List.isPrefixOf_iff_prefix.mp hprefix
    have hrest := Option.some.inj h
    rw [List.append_assoc, List.drop_append, List.drop_eq_nil_of_le (by omega),
      Nat.add_sub_cancel_left] at hrest
    rw [← hrest, List.append_assoc]
    rfl
  · rintro rfl
    have hprefix : (name ++ [61]).isPrefixOf (name ++ 61 :: value) = true := by
      rw [List.isPrefixOf_iff_prefix]
      exact ⟨value, by rw [List.append_assoc, List.singleton_append]⟩
    rw [if_pos hprefix, List.drop_append, List.drop_eq_nil_of_le (by omega),
      Nat.add_sub_cancel_left]
    rfl

/-- NUL and the ampersand are always encoded. -/
theorem encodeByte_notMem {x : UInt8} (hx : x = 0 ∨ x = 38) (c : UInt8) : x ∉ encodeByte c := by
  have hbytes : ∀ n : Fin 256,
      0 ∉ encodeByte (UInt8.ofNat n.val) ∧ 38 ∉ encodeByte (UInt8.ofNat n.val) := by
    decide +kernel
  have hc := hbytes ⟨c.toNat, c.toNat_lt⟩
  rw [UInt8.ofNat_toNat] at hc
  rcases hx with rfl | rfl
  · exact hc.1
  · exact hc.2

/-- An encoded value ends no string and no field. -/
theorem formEncode_notMem {x : UInt8} (hx : x = 0 ∨ x = 38) (s : List UInt8) :
    x ∉ formEncode s := by
  rw [formEncode, List.mem_flatMap]
  rintro ⟨c, _, hc⟩
  exact encodeByte_notMem hx c hc

end Naitron.Lib
